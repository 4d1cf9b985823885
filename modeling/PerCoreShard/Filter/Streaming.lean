import Mathlib.Data.List.Forall2
import Mathlib.Data.List.TakeWhile
import PerCoreShard.Filter.BodyFilterGate

/-! Chains of streaming and buffering filters. A streaming filter maps every byte it sees; a
buffering filter holds everything back until the end of the stream. When the gate resumes at a
buffering filter, new bytes enter the chain there. -/
namespace PerCoreShard

/-- What a data filter does to the bytes it is shown. -/
inductive DataFilter
  | streaming (map : UInt8 → UInt8)
  | buffering

namespace DataFilter

def isStreaming : DataFilter → Bool
  | .streaming _ => true
  | .buffering => false

/-- The maps of all streaming filters, the first one applied first. -/
def through : List DataFilter → UInt8 → UInt8
  | [],b => b
  | .streaming map::ks,b => through ks (map b)
  | .buffering::ks,b => through ks b

theorem through_append (ks ls : List DataFilter) (b : UInt8) :
    through (ks ++ ls) b = through ls (through ks b) := by
  induction ks generalizing b with
  | nil => rfl
  | cons k ks ih => cases k <;> exact ih _

/-- A chain that is not all streaming holds data back at its first buffering filter. -/
theorem exists_buffering {order : List DataFilter} (hs : ¬∀ k ∈ order, k.isStreaming = true) :
    ∃ ks ls, order = ks ++ .buffering::ls ∧ (∀ k ∈ ks, k.isStreaming = true) ∧
      order.dropWhile isStreaming = .buffering::ls := by
  have hsplit := List.takeWhile_append_dropWhile (p := isStreaming) (l := order)
  have hne : order.dropWhile isStreaming ≠ [] := by
    intro hnil
    refine hs fun k hk => ?_
    rw [hnil,List.append_nil] at hsplit
    exact List.mem_takeWhile_imp (hsplit ▸ hk)
  obtain ⟨k,ls,hdrop⟩ := List.exists_cons_of_ne_nil hne
  have hk : k = .buffering := by
    have := List.head_dropWhile_not isStreaming hne
    simp only [hdrop,List.head_cons] at this
    cases k with
    | streaming => simp [isStreaming] at this
    | buffering => rfl
  subst hk
  rw [hdrop] at hsplit
  exact ⟨_,ls,hsplit.symm,fun k hk => List.mem_takeWhile_imp hk,hdrop⟩

/-- The later bytes miss the filters in front of the buffering one. -/
theorem map_through_eq_iff {order ls : List DataFilter}
    (hdrop : order.dropWhile isStreaming = .buffering::ls) (first later : Bytes) :
    first.map (through order) ++ later.map (through ls) = (first ++ later).map (through order) ↔
      ∀ b ∈ later, through (order.dropWhile isStreaming) b = through order b := by
  have hthrough : through (.buffering::ls) = through ls := rfl
  rw [hdrop,hthrough,List.map_append,List.append_cancel_left_eq,List.map_inj_left]

end DataFilter

/-- A filter behaves like one of the two, whatever it does to its context. -/
def Filter.Behaves {Ctx : Type} (step : DataStep Ctx) (f : Filter Ctx) : DataFilter → Prop
  | .streaming map => ∀ data endStream ctx, ∃ ctx',
    step f data endStream ctx = (.continue_,data.map map,ctx')
  | .buffering => ∀ data endStream ctx, ∃ ctx',
    step f data endStream ctx = (if endStream then .continue_ else .stopAndBuffer,data,ctx')

/-- The order in which a direction runs the filters. -/
def executionOrder {α : Type} (isRequest : Bool) (xs : List α) : List α :=
  if isRequest then xs else xs.reverse

/-- The data callback of a direction. -/
def dataStep (Ctx : Type) (isRequest : Bool) : DataStep Ctx :=
  if isRequest then Filter.onRequestData else Filter.onResponseData

namespace FilterChain
open DataFilter
variable {Ctx : Type} {filters : FilterChain Ctx} {step : DataStep Ctx}

/-- The filters with these indices, in this order, behave like `ks`. -/
def Follows (filters : FilterChain Ctx) (step : DataStep Ctx) : List ℕ → List DataFilter → Prop :=
  List.Forall₂ fun i k => ∃ f, filters[i]? = some f ∧ f.Behaves step k

theorem iterate_passed {is : List ℕ} {ks : List DataFilter} (h : Follows filters step is ks)
    (endStream : Bool) (hpass : endStream = true ∨ ∀ k ∈ ks, k.isStreaming = true) (data : Bytes)
    (ctx : Ctx) : ∃ ctx', iterate filters step endStream is data ctx =
      (.passed,data.map (through ks),ctx') := by
  induction h generalizing data ctx with
  | nil => exact ⟨ctx,by simp [iterate,show through [] = id from rfl]⟩
  | @cons i k is ks hk _ ih =>
    obtain ⟨f,hf,hb⟩ := hk
    have hrest : endStream = true ∨ ∀ k ∈ ks, k.isStreaming = true :=
      hpass.imp_right fun hs k hm => hs k (List.mem_cons_of_mem _ hm)
    cases k with
    | streaming map =>
      obtain ⟨ctx1,hs⟩ := hb data endStream ctx
      obtain ⟨ctx2,hi⟩ := ih hrest (data.map map) ctx1
      refine ⟨ctx2,?_⟩
      simp only [iterate,hf,hs,hi,List.map_map]
      rfl
    | buffering =>
      have hend : endStream = true := hpass.resolve_right fun hs => by
        have := hs .buffering (by simp)
        cases this
      obtain ⟨ctx1,hs⟩ := hb data endStream ctx
      obtain ⟨ctx2,hi⟩ := ih hrest data ctx1
      refine ⟨ctx2,?_⟩
      rw [hend] at hs hi ⊢
      simp only [iterate,hf,hs,hi,if_true]
      rfl

theorem iterate_blocked (is : List ℕ) (ks : List DataFilter) {rest : List ℕ} {i : ℕ}
    {ls : List DataFilter} (h : Follows filters step (is ++ i::rest) (ks ++ .buffering::ls))
    (hlen : is.length = ks.length) (hs : ∀ k ∈ ks, k.isStreaming = true) (data : Bytes) (ctx : Ctx) :
    ∃ ctx', iterate filters step false (is ++ i::rest) data ctx =
      (.blockedAt i,data.map (through ks),ctx') := by
  induction is generalizing ks data ctx with
  | nil =>
    obtain rfl : ks = [] := by simpa using hlen.symm
    obtain ⟨⟨f,hf,hb⟩,-⟩ := List.forall₂_cons.mp h
    obtain ⟨ctx',hstep⟩ := hb data false ctx
    refine ⟨ctx',?_⟩
    simp [iterate,hf,hstep,show through [] = id from rfl]
  | cons j is ih =>
    cases ks with
    | nil => simp at hlen
    | cons k ks =>
      obtain ⟨⟨f,hf,hb⟩,hrest⟩ := List.forall₂_cons.mp h
      cases k with
      | streaming map =>
        obtain ⟨ctx1,hstep⟩ := hb data false ctx
        obtain ⟨ctx2,hi⟩ := ih ks hrest (by simpa using hlen)
          (fun k hk => hs k (List.mem_cons_of_mem _ hk)) (data.map map) ctx1
        refine ⟨ctx2,?_⟩
        simp only [List.cons_append,iterate,hf,hstep,hi,List.map_map]
        rfl
      | buffering =>
        have := hs .buffering (by simp)
        cases this

theorem visits_first {size : ℕ} (reverse : Bool) (h : 0 < size) :
    visits reverse (firstIndex reverse size) size = executionOrder (!reverse) (List.range size) := by
  cases reverse
  · simp [visits,firstIndex,executionOrder,List.range_eq_range']
  · simp [visits,firstIndex,executionOrder,Nat.sub_add_cancel h]

/-- A pass that resumes at a filter visits what a fresh pass visits from there on. -/
theorem visits_resume {reverse : Bool} {size i : ℕ} {is rest : List ℕ}
    (h : executionOrder (!reverse) (List.range size) = is ++ i::rest) :
    visits reverse i size = i::rest := by
  cases reverse
  · have hr : List.range size = is ++ i::rest := h
    have hlen : is.length < size := by
      have := congrArg List.length hr
      simp only [List.length_range,List.length_append,List.length_cons] at this
      omega
    have hi : i = is.length := by
      have := congrArg (fun l => l[is.length]?) hr
      simpa [List.getElem?_range hlen,eq_comm] using this
    have hd := congrArg (List.drop is.length) hr
    rw [List.drop_left,List.range_eq_range',List.drop_range'] at hd
    rw [← hd,hi]
    simp [visits]
  · have hr : List.range size = rest.reverse ++ i::is.reverse := by
      have h' : (List.range size).reverse = is ++ i::rest := h
      have := congrArg List.reverse h'
      simpa using this
    have hlen : rest.length < size := by
      have := congrArg List.length hr
      simp only [List.length_range,List.length_append,List.length_cons,List.length_reverse] at this
      omega
    have hi : i = rest.length := by
      have := congrArg (fun l => l[rest.length]?) hr
      simpa [List.getElem?_range hlen,List.getElem?_append_right,eq_comm] using this
    have ht := congrArg (List.take (rest.length + 1)) hr
    rw [List.take_range,min_eq_left hlen] at ht
    have hr' : List.take (rest.length + 1) (rest.reverse ++ i::is.reverse) = rest.reverse ++ [i] := by
      rw [List.take_append]
      simp
    rw [hr',← hi] at ht
    simp only [visits,if_true,ht]
    simp

theorem follows_order {ks : List DataFilter} (reverse : Bool)
    (h : List.Forall₂ (Filter.Behaves step) filters ks) :
    Follows filters step (executionOrder (!reverse) (List.range filters.length))
      (executionOrder (!reverse) ks) := by
  have hfwd : Follows filters step (List.range filters.length) ks := by
    refine List.forall₂_iff_get.mpr ⟨by simpa using h.length_eq,fun i hi hk => ?_⟩
    rw [List.length_range] at hi
    refine ⟨filters[i],?_,?_⟩
    · simp [hi]
    · have := (List.forall₂_iff_get.mp h).2 i hi hk
      simpa using this
  cases reverse
  · exact hfwd
  · exact List.rel_reverse hfwd

end FilterChain
namespace BodyFilterGate
open DataFilter FilterChain
variable {Ctx : Type} {filters : FilterChain Ctx} {highWatermarkBytes : ℕ} {isRequest : Bool}
  {kinds : List DataFilter}

/-- A body fed chunk by chunk, the last chunk with `end_stream`. -/
def applyAll (filters : FilterChain Ctx) (highWatermarkBytes : ℕ) (isRequest : Bool) :
    List Bytes → DataIterationState → Ctx → List GateResult
  | [],_,_ => []
  | chunk::rest,state,ctx =>
    let r := apply filters highWatermarkBytes isRequest chunk rest.isEmpty state ctx
    r.1::applyAll filters highWatermarkBytes isRequest rest r.2.1 r.2.2

/-- What came out of the gate. -/
def forwarded (results : List GateResult) : Bytes :=
  results.flatMap fun r =>
    match r with
    | .forward data => data
    | _ => []

theorem apply_eq (chunk : Bytes) (endStream : Bool) (state : DataIterationState) (ctx : Ctx) :
    (if isRequest then filters.applyRequestData chunk endStream state ctx
      else filters.applyResponseData chunk endStream state ctx) =
      filters.applyData (dataStep Ctx isRequest) (!isRequest) chunk endStream state ctx := by
  cases isRequest <;> rfl

section
variable (h : List.Forall₂ (Filter.Behaves (dataStep Ctx isRequest)) filters kinds)
include h

/-- A fresh pass that nothing holds back. -/
theorem apply_passed (highWatermarkBytes : ℕ) (endStream : Bool) (hpass : endStream = true ∨
      ∀ k ∈ executionOrder isRequest kinds, k.isStreaming = true) (chunk : Bytes) (ctx : Ctx) :
    ∃ ctx', apply filters highWatermarkBytes isRequest chunk endStream {} ctx =
      (.forward (chunk.map (through (executionOrder isRequest kinds))),{},ctx') := by
  unfold apply
  rw [apply_eq]
  unfold FilterChain.applyData DataIterationState.current DataIterationState.startIndex
  split
  next hempty =>
    obtain rfl : filters = [] := List.isEmpty_iff.mp hempty
    obtain rfl : kinds = [] := by simpa using h
    refine ⟨ctx,?_⟩
    have hid : (through [] : UInt8 → UInt8) = id := rfl
    cases isRequest <;> simp [executionOrder,hid]
  next hne =>
    have hpos : 0 < filters.length := List.length_pos_iff.mpr (by simpa [List.isEmpty_iff] using hne)
    have hfollow := follows_order (!isRequest) h
    rw [Bool.not_not] at hfollow
    obtain ⟨ctx',hi⟩ := iterate_passed hfollow endStream hpass chunk ctx
    have hv := visits_first (!isRequest) hpos
    rw [Bool.not_not] at hv
    refine ⟨ctx',?_⟩
    simp only [Bool.false_eq_true,if_false,hv,hi]

variable {ks ls : List DataFilter}
  (hkinds : executionOrder isRequest kinds = ks ++ .buffering::ls)
include hkinds

/-- The position of the first buffering filter. -/
theorem buffering_index : ∃ is i rest, executionOrder isRequest (List.range filters.length) =
    is ++ i::rest ∧ is.length = ks.length ∧
      Follows filters (dataStep Ctx isRequest) (i::rest) (.buffering::ls) := by
  have hfollow := follows_order (!isRequest) h
  rw [Bool.not_not,hkinds] at hfollow
  have hdrop := List.forall₂_drop_append _ _ _ hfollow
  obtain ⟨i,rest,hk,hrest,heq⟩ := List.forall₂_cons_right_iff.mp hdrop
  refine ⟨_,i,rest,?_,(List.forall₂_take_append _ _ _ hfollow).length_eq,.cons hk hrest⟩
  rw [← heq,List.take_append_drop]

/-- A fresh pass that stops at the first buffering filter. -/
theorem apply_blocks (hs : ∀ k ∈ ks, k.isStreaming = true) (chunk : Bytes) (ctx : Ctx)
    (hr : (apply filters highWatermarkBytes isRequest chunk false {} ctx).1.rejects = false) :
    ∃ is i rest ctx', executionOrder isRequest (List.range filters.length) = is ++ i::rest ∧
      Follows filters (dataStep Ctx isRequest) (i::rest) (.buffering::ls) ∧
      apply filters highWatermarkBytes isRequest chunk false {} ctx =
        (.stillBuffering,⟨true,i,chunk.map (through ks)⟩,ctx') := by
  obtain ⟨is,i,rest,horder,hlen,hresume⟩ := buffering_index h hkinds
  have hfollow := follows_order (!isRequest) h
  rw [Bool.not_not,hkinds,horder] at hfollow
  obtain ⟨ctx',hi⟩ := iterate_blocked is ks hfollow hlen hs chunk ctx
  have hpos : 0 < filters.length := by
    have := congrArg List.length horder
    cases isRequest <;> simp [executionOrder] at this <;> omega
  have hne : filters.isEmpty = false := by
    cases filters with
    | nil => simp at hpos
    | cons => rfl
  have hv := visits_first (!isRequest) hpos
  rw [Bool.not_not,horder] at hv
  refine ⟨is,i,rest,ctx',horder,hresume,?_⟩
  unfold apply at hr ⊢
  rw [apply_eq] at hr ⊢
  simp only [FilterChain.applyData,DataIterationState.current,DataIterationState.startIndex,hne,Bool.false_eq_true,if_false,hv,hi] at hr ⊢
  split at hr
  · cases hr
  next hw => rw [if_neg hw]

end

section
variable {is rest : List ℕ} {i : ℕ} {ls : List DataFilter}
  (horder : executionOrder isRequest (List.range filters.length) = is ++ i::rest)
  (hfollow : Follows filters (dataStep Ctx isRequest) (i::rest) (.buffering::ls))
include horder hfollow

theorem visits_held : visits (!isRequest) i filters.length = i::rest ∧ filters.isEmpty = false := by
  refine ⟨visits_resume (by rw [Bool.not_not]; exact horder),?_⟩
  cases filters with
  | nil => cases isRequest <;> simp [executionOrder] at horder
  | cons => rfl

/-- While the filter holds the data back, new data is added to what it holds. -/
theorem apply_resumes (chunk held : Bytes) (ctx : Ctx)
    (hr : (apply filters highWatermarkBytes isRequest chunk false ⟨true,i,held⟩ ctx).1.rejects =
      false) :
    ∃ ctx', apply filters highWatermarkBytes isRequest chunk false ⟨true,i,held⟩ ctx =
      (.stillBuffering,⟨true,i,held ++ chunk⟩,ctx') := by
  obtain ⟨hv,hne⟩ := visits_held horder hfollow
  obtain ⟨ctx',hi⟩ := iterate_blocked [] [] hfollow rfl (by simp) (held ++ chunk) ctx
  refine ⟨ctx',?_⟩
  rw [List.nil_append] at hi
  unfold apply at hr ⊢
  rw [apply_eq] at hr ⊢
  have hid : (through [] : UInt8 → UInt8) = id := rfl
  simp only [FilterChain.applyData,DataIterationState.current,DataIterationState.startIndex,hne,Bool.false_eq_true,if_false,if_true,hv,hi,hid,List.map_id]
    at hr ⊢
  split at hr
  · cases hr
  next hw => rw [if_neg hw]

/-- At the end of the stream everything held back enters the rest of the chain. -/
theorem apply_releases (highWatermarkBytes : ℕ) (chunk held : Bytes) (ctx : Ctx) :
    ∃ state ctx', apply filters highWatermarkBytes isRequest chunk true ⟨true,i,held⟩ ctx =
      (.forward ((held ++ chunk).map (through (.buffering::ls))),state,ctx') := by
  obtain ⟨hv,hne⟩ := visits_held horder hfollow
  obtain ⟨ctx',hi⟩ := iterate_passed hfollow true (.inl rfl) (held ++ chunk) ctx
  refine ⟨⟨false,i,[]⟩,ctx',?_⟩
  unfold apply
  rw [apply_eq]
  simp only [FilterChain.applyData,DataIterationState.current,DataIterationState.startIndex,hne,Bool.false_eq_true,if_false,if_true,hv,hi]

theorem forwarded_held (chunks : List Bytes) (held : Bytes) (ctx : Ctx) (hne : chunks ≠ [])
    (hr : ∀ r ∈ applyAll filters highWatermarkBytes isRequest chunks ⟨true,i,held⟩ ctx,
      r.rejects = false) :
    forwarded (applyAll filters highWatermarkBytes isRequest chunks ⟨true,i,held⟩ ctx) =
      (held ++ chunks.flatten).map (through ls) := by
  induction chunks generalizing held ctx with
  | nil => exact absurd rfl hne
  | cons chunk chunks ih =>
    cases hlast : chunks with
    | nil =>
      obtain ⟨state,ctx',happly⟩ := apply_releases horder hfollow highWatermarkBytes chunk held ctx
      have hthrough : through (.buffering::ls) = through ls := rfl
      simp [applyAll,happly,forwarded,hthrough]
    | cons next more =>
      rw [← hlast]
      have hfalse : chunks.isEmpty = false := by rw [hlast]; rfl
      simp only [applyAll,hfalse,List.mem_cons,forall_eq_or_imp] at hr
      obtain ⟨ctx',happly⟩ := apply_resumes horder hfollow chunk held ctx hr.1
      simp only [happly] at hr
      have hrest := ih (held ++ chunk) ctx' (by simp [hlast]) hr.2
      simp only [applyAll,hfalse,happly]
      change forwarded (.stillBuffering::_) = _
      rw [forwarded,List.flatMap_cons,← forwarded,hrest]
      simp

end

/-- Without a buffering filter every chunk passes at once. -/
theorem forwarded_streaming (h : List.Forall₂ (Filter.Behaves (dataStep Ctx isRequest)) filters kinds)
    (hs : ∀ k ∈ executionOrder isRequest kinds, k.isStreaming = true) (chunks : List Bytes)
    (ctx : Ctx) : forwarded (applyAll filters highWatermarkBytes isRequest chunks {} ctx) =
      chunks.flatten.map (through (executionOrder isRequest kinds)) := by
  induction chunks generalizing ctx with
  | nil => rfl
  | cons chunk chunks ih =>
    obtain ⟨ctx',happly⟩ := apply_passed h highWatermarkBytes chunks.isEmpty (.inr hs)
      chunk ctx
    simp only [applyAll,happly]
    rw [forwarded,List.flatMap_cons,← forwarded,ih]
    simp

/-- The first chunk passes the whole chain, the others only what comes after the filter that
holds the data back. -/
theorem forwarded_buffering (h : List.Forall₂ (Filter.Behaves (dataStep Ctx isRequest)) filters kinds)
    {ks ls : List DataFilter} (hkinds : executionOrder isRequest kinds = ks ++ .buffering::ls)
    (hs : ∀ k ∈ ks, k.isStreaming = true) (chunk : Bytes) (chunks : List Bytes) (ctx : Ctx)
    (hr : ∀ r ∈ applyAll filters highWatermarkBytes isRequest (chunk::chunks) {} ctx,
      r.rejects = false) :
    forwarded (applyAll filters highWatermarkBytes isRequest (chunk::chunks) {} ctx) =
      chunk.map (through (executionOrder isRequest kinds)) ++ chunks.flatten.map (through ls) := by
  cases hlast : chunks with
  | nil =>
    obtain ⟨ctx',happly⟩ := apply_passed h highWatermarkBytes true (.inl rfl) chunk ctx
    simp [applyAll,happly,forwarded]
  | cons next more =>
    rw [← hlast]
    have hfalse : chunks.isEmpty = false := by rw [hlast]; rfl
    simp only [applyAll,hfalse,List.mem_cons,forall_eq_or_imp] at hr
    obtain ⟨is,i,rest,ctx',horder,hfollow,happly⟩ := apply_blocks h hkinds hs chunk ctx hr.1
    simp only [happly] at hr
    have hheld := forwarded_held horder hfollow chunks (chunk.map (through ks)) ctx'
      (by simp [hlast]) hr.2
    simp only [applyAll,hfalse,happly]
    change forwarded (.stillBuffering::_) = _
    rw [forwarded,List.flatMap_cons,← forwarded,hheld,hkinds]
    have hthrough : through (ks ++ .buffering::ls) = through ls ∘ through ks := by
      funext b
      exact through_append ks (.buffering::ls) b
    simp [hthrough]

/-- What comes out is the body mapped by the whole chain exactly if no filter holds data back,
or the filters before the first one that does make no difference to later chunks. -/
theorem forwarded_eq_iff (h : List.Forall₂ (Filter.Behaves (dataStep Ctx isRequest)) filters kinds)
    (chunks : List Bytes) (ctx : Ctx)
    (hr : ∀ r ∈ applyAll filters highWatermarkBytes isRequest chunks {} ctx, r.rejects = false) :
    forwarded (applyAll filters highWatermarkBytes isRequest chunks {} ctx) =
        chunks.flatten.map (through (executionOrder isRequest kinds)) ↔
      (∀ k ∈ kinds, k.isStreaming = true) ∨ ∀ b ∈ chunks.tail.flatten,
        through ((executionOrder isRequest kinds).dropWhile isStreaming) b =
          through (executionOrder isRequest kinds) b := by
  have hmem : ∀ k, k ∈ executionOrder isRequest kinds ↔ k ∈ kinds := by
    intro k
    cases isRequest <;> simp [executionOrder]
  by_cases hs : ∀ k ∈ executionOrder isRequest kinds, k.isStreaming = true
  · exact iff_of_true (forwarded_streaming h hs chunks ctx)
      (.inl fun k hk => hs k ((hmem k).mpr hk))
  · have hnot : ¬∀ k ∈ kinds, k.isStreaming = true :=
      fun hall => hs fun k hk => hall k ((hmem k).mp hk)
    cases chunks with
    | nil => exact iff_of_true rfl (.inr (by simp))
    | cons chunk chunks =>
      obtain ⟨ks,ls,hkinds,hks,hdrop⟩ := exists_buffering hs
      rw [forwarded_buffering h hkinds hks chunk chunks ctx hr,List.flatten_cons,
        map_through_eq_iff hdrop,List.tail_cons]
      exact (or_iff_right hnot).symm

theorem through_id (ks : List DataFilter) (h : ∀ k ∈ ks, k = .streaming id) : through ks = id := by
  funext b
  induction ks with
  | nil => rfl
  | cons k ks ih =>
    obtain ⟨rfl,hks⟩ := List.forall_mem_cons.mp h
    exact ih hks

theorem behaves_of_noData (h : filters.NoData) : List.Forall₂ (Filter.Behaves (dataStep Ctx isRequest))
    filters (filters.map fun _ => .streaming id) := by
  rw [List.forall₂_map_right_iff,List.forall₂_same]
  intro f hf data endStream ctx
  obtain ⟨hreq,hresp⟩ := h f hf data endStream ctx
  refine ⟨ctx,?_⟩
  rw [List.map_id]
  cases isRequest
  · exact hresp
  · exact hreq

/-- A chain without data filters lets every chunk pass as it is. -/
theorem apply_of_noData (h : filters.NoData) (highWatermarkBytes : ℕ) (isRequest : Bool)
    (chunk : Bytes) (endStream : Bool) (ctx : Ctx) :
    (apply filters highWatermarkBytes isRequest chunk endStream {} ctx).1 = .forward chunk ∧
      (apply filters highWatermarkBytes isRequest chunk endStream {} ctx).2.1 = {} := by
  have hid : ∀ k ∈ executionOrder isRequest (filters.map fun _ => DataFilter.streaming id),
      k = .streaming id := by
    intro k hk
    have hmem : k ∈ filters.map fun _ => DataFilter.streaming id := by
      cases isRequest
      · exact List.mem_reverse.mp hk
      · exact hk
    obtain ⟨_,-,rfl⟩ := List.mem_map.mp hmem
    rfl
  obtain ⟨ctx',happly⟩ := apply_passed (behaves_of_noData h) highWatermarkBytes endStream
    (.inr fun k hk => by rw [hid k hk]; rfl) chunk ctx
  rw [happly,through_id _ hid,List.map_id]
  exact ⟨rfl,rfl⟩

/-- Maps lower-case letters to upper case. -/
def toUpper (c : UInt8) : UInt8 := if 97 ≤ c ∧ c ≤ 122 then c - 32 else c

def streamingFilter (map : UInt8 → UInt8) : Filter Unit where
  onRequestData data _ ctx := (.continue_,data.map map,ctx)
  onResponseData data _ ctx := (.continue_,data.map map,ctx)

def bufferingFilter : Filter Unit where
  onRequestData data endStream ctx := (if endStream then .continue_ else .stopAndBuffer,data,ctx)
  onResponseData data endStream ctx := (if endStream then .continue_ else .stopAndBuffer,data,ctx)

theorem behaves_sample (isRequest : Bool) :
    List.Forall₂ (Filter.Behaves (dataStep Unit isRequest))
      [streamingFilter toUpper,bufferingFilter] [.streaming toUpper,.buffering] := by
  refine .cons (fun data endStream ctx => ⟨ctx,?_⟩)
    (.cons (fun data endStream ctx => ⟨ctx,?_⟩) .nil) <;> cases isRequest <;> rfl

theorem forwarded_eq_iff_upper :
    forwarded (applyAll [streamingFilter toUpper,bufferingFilter] 16 true [ascii "ab",ascii "CD"] {} ()) =
        [ascii "ab",ascii "CD"].flatten.map
          (through (executionOrder true [.streaming toUpper,.buffering])) ↔
      (∀ k ∈ [DataFilter.streaming toUpper,.buffering], k.isStreaming = true) ∨
        ∀ b ∈ [ascii "ab",ascii "CD"].tail.flatten,
          through ((executionOrder true [.streaming toUpper,.buffering]).dropWhile isStreaming) b =
            through (executionOrder true [.streaming toUpper,.buffering]) b :=
  forwarded_eq_iff (behaves_sample true) _ () (by decide)

/-- The second chunk is not mapped. -/
theorem later_chunk_unmapped :
    ¬∀ (Ctx : Type) (filters : FilterChain Ctx) (kinds : List DataFilter) (isRequest : Bool)
      (highWatermarkBytes : ℕ) (chunks : List Bytes) (ctx : Ctx),
      List.Forall₂ (Filter.Behaves (dataStep Ctx isRequest)) filters kinds →
      (∀ r ∈ applyAll filters highWatermarkBytes isRequest chunks {} ctx, r.rejects = false) →
      forwarded (applyAll filters highWatermarkBytes isRequest chunks {} ctx) =
        chunks.flatten.map (through (executionOrder isRequest kinds)) := by
  intro h
  have hfwd := h Unit _ _ true 16 [ascii "ab",ascii "cd"] () (behaves_sample true) (by decide)
  revert hfwd
  decide

end BodyFilterGate
end PerCoreShard
