import PerCoreShard.Net.Http.Native.Detail

/-! The request and response serializers. Both write a head and then a body through the same
two offsets; only the start line differs. -/
namespace PerCoreShard

def headerLines (headers : List Header) : Bytes :=
  headers.flatMap fun h => h.name ++ ascii ": " ++ h.value ++ crlf

/-- The bytes `RequestSerializer::start` puts into `head_bytes_`. -/
def RequestHead.bytes (head : RequestHead) : Bytes :=
  head.method ++ ascii " " ++ head.target ++ ascii " " ++
    (if head.version = 10 then ascii "HTTP/1.0" else ascii "HTTP/1.1") ++ crlf ++
    headerLines head.headers ++ crlf

/-- The bytes `ResponseSerializer::start` puts into `head_bytes_`. -/
def ResponseHead.bytes (head : ResponseHead) : Bytes :=
  (if head.version = 10 then ascii "HTTP/1.0 " else ascii "HTTP/1.1 ") ++ decimal head.status ++
    ascii " " ++ head.reason ++ crlf ++ headerLines head.headers ++ crlf

inductive Stage
  | head
  | body
  | done
  deriving DecidableEq, Repr

theorem nil_sent : 0 ≤ ([] : Bytes).length := Nat.le_refl 0

/-- The members of a serializer. The offsets never pass their strings. -/
structure Serializer where
  headBytes : Bytes := []
  headSent : ℕ := 0
  chunked : Bool := false
  pendingBytes : Bytes := []
  pendingSent : ℕ := 0
  isLastProvided : Bool := false
  stage : Stage := .head
  headSent_le : headSent ≤ headBytes.length := by first | exact nil_sent | simp
  pendingSent_le : pendingSent ≤ pendingBytes.length := by first | exact nil_sent | simp

namespace Serializer

def start (headBytes : Bytes) (headers : List Header) : Serializer where
  headBytes := headBytes
  chunked := hasChunkedEncoding headers

def startRequest (head : RequestHead) : Serializer := start head.bytes head.headers
def startResponse (head : ResponseHead) : Serializer := start head.bytes head.headers

/-- How one piece of body is written under the given framing. -/
def encode (chunked : Bool) (chunk : Bytes) (isLast : Bool) : Bytes :=
  if chunked then chunkFrame chunk isLast else chunk

def provideBody (s : Serializer) (chunk : Bytes) (isLast : Bool) : Serializer :=
  { s with
    pendingBytes :=
      if s.chunked then appendChunk s.pendingBytes chunk isLast else s.pendingBytes ++ chunk
    isLastProvided := isLast || s.isLastProvided
    pendingSent_le := by
      have h := s.pendingSent_le
      split_ifs <;> simp only [appendChunk,List.length_append] <;> omega }

/-- The `kHead` part of `pull`. -/
def pullHead (s : Serializer) (size : ℕ) : Bytes × Serializer :=
  let n := min size (s.headBytes.length - s.headSent)
  ((s.headBytes.drop s.headSent).take n,
    { s with
      headSent := s.headSent + n
      stage := if s.headSent + n = s.headBytes.length then .body else s.stage
      headSent_le := by have h := s.headSent_le; omega })

/-- The `kBody` part of `pull`. -/
def pullBody (s : Serializer) (size : ℕ) : Bytes × Serializer :=
  let n := min size (s.pendingBytes.length - s.pendingSent)
  ((s.pendingBytes.drop s.pendingSent).take n,
    if s.pendingSent + n = s.pendingBytes.length then
      { s with
        pendingBytes := []
        pendingSent := 0
        stage := if s.isLastProvided then .done else s.stage
        pendingSent_le := by simp }
    else
      { s with
        pendingSent := s.pendingSent + n
        pendingSent_le := by have h := s.pendingSent_le; omega })

def pull (s : Serializer) (size : ℕ) : Bytes × Serializer :=
  let r := if s.stage = .head then s.pullHead size else ([],s)
  if s.stage = .head ∧ r.1.length = size then r
  else if r.2.stage = .body then
    (r.1 ++ (r.2.pullBody (size - r.1.length)).1,(r.2.pullBody (size - r.1.length)).2)
  else r

def done (s : Serializer) : Bool := s.stage == .done

/-- The bytes that were provided and not yet pulled. -/
def remaining (s : Serializer) : Bytes :=
  s.headBytes.drop s.headSent ++ s.pendingBytes.drop s.pendingSent

/-- The stage agrees with the offsets. -/
structure Coherent (s : Serializer) : Prop where
  head : s.stage = .head → s.headSent < s.headBytes.length
  sent : s.stage ≠ .head → s.headSent = s.headBytes.length
  done : s.stage = .done → s.pendingBytes = [] ∧ s.isLastProvided = true

@[simp] theorem remaining_start (b : Bytes) (hs : List Header) : (start b hs).remaining = b := by
  simp [remaining,start]

@[simp] theorem done_start (b : Bytes) (hs : List Header) : (start b hs).done = false := rfl
@[simp] theorem isLastProvided_start (b : Bytes) (hs : List Header) :
    (start b hs).isLastProvided = false := rfl
@[simp] theorem chunked_start (b : Bytes) (hs : List Header) :
    (start b hs).chunked = hasChunkedEncoding hs := rfl

theorem coherent_start {b : Bytes} (hs : List Header) (hb : b ≠ []) : (start b hs).Coherent where
  head _ := List.length_pos_iff.mpr hb
  sent h := absurd rfl h
  done h := by cases h

theorem request_bytes_ne_nil (head : RequestHead) : head.bytes ≠ [] := by
  simp [RequestHead.bytes,crlf]

theorem response_bytes_ne_nil (head : ResponseHead) : head.bytes ≠ [] := by
  simp [ResponseHead.bytes,crlf]

@[simp] theorem remaining_provideBody (s : Serializer) (chunk : Bytes) (isLast : Bool) :
    (s.provideBody chunk isLast).remaining = s.remaining ++ encode s.chunked chunk isLast := by
  have h := s.pendingSent_le
  simp only [remaining,provideBody,encode,appendChunk,List.append_assoc]
  congr 1
  split_ifs <;> rw [List.drop_append_of_le_length h]

@[simp] theorem done_provideBody (s : Serializer) (chunk : Bytes) (isLast : Bool) :
    (s.provideBody chunk isLast).done = s.done := rfl
@[simp] theorem chunked_provideBody (s : Serializer) (chunk : Bytes) (isLast : Bool) :
    (s.provideBody chunk isLast).chunked = s.chunked := rfl
@[simp] theorem isLastProvided_provideBody (s : Serializer) (chunk : Bytes) (isLast : Bool) :
    (s.provideBody chunk isLast).isLastProvided = (isLast || s.isLastProvided) := rfl

theorem Coherent.provideBody {s : Serializer} (h : s.Coherent) (hd : s.done = false)
    (chunk : Bytes) (isLast : Bool) : (s.provideBody chunk isLast).Coherent where
  head := h.head
  sent := h.sent
  done hs := by
    have : s.stage = .done := hs
    simp [Serializer.done,this] at hd

theorem Coherent.remaining_of_done {s : Serializer} (h : s.Coherent) (hd : s.done = true) :
    s.remaining = [] := by
  have hs : s.stage = .done := by simpa [Serializer.done] using hd
  have hsent := h.sent (by simp [hs])
  simp [remaining,hsent,(h.done hs).1]

theorem Coherent.isLastProvided_of_done {s : Serializer} (h : s.Coherent) (hd : s.done = true) :
    s.isLastProvided = true := (h.done (by simpa [Serializer.done] using hd)).2

theorem pullBody_out (s : Serializer) (size : ℕ) :
    (s.pullBody size).1 = (s.pendingBytes.drop s.pendingSent).take size := by
  have h : s.pendingBytes.length - s.pendingSent = (s.pendingBytes.drop s.pendingSent).length := by
    simp
  simp only [pullBody]
  rw [h,← List.take_eq_take_min]

theorem pullBody_drained (s : Serializer) (size : ℕ)
    (h : s.pendingBytes.length - s.pendingSent ≤ size) :
    (s.pullBody size).2 =
      { s with
        pendingBytes := []
        pendingSent := 0
        stage := if s.isLastProvided then .done else s.stage
        pendingSent_le := by simp } := by
  have hp := s.pendingSent_le
  have hall : s.pendingSent + min size (s.pendingBytes.length - s.pendingSent) =
    s.pendingBytes.length := by omega
  simp only [pullBody,if_pos hall]

theorem pullBody_unfinished (s : Serializer) (size : ℕ)
    (h : size < s.pendingBytes.length - s.pendingSent) :
    (s.pullBody size).2 =
      { s with
        pendingSent := s.pendingSent + size
        pendingSent_le := by omega } := by
  have hn : min size (s.pendingBytes.length - s.pendingSent) = size := by omega
  have hall : ¬s.pendingSent + size = s.pendingBytes.length := by omega
  simp only [pullBody,hn,if_neg hall]

theorem pullBody_remaining (s : Serializer) (size : ℕ) (h : s.headSent = s.headBytes.length) :
    (s.pullBody size).2.remaining = (s.pendingBytes.drop s.pendingSent).drop size := by
  by_cases hle : s.pendingBytes.length - s.pendingSent ≤ size
  · have : s.pendingBytes.length ≤ s.pendingSent + size := by omega
    simp [pullBody_drained s size hle,remaining,h,List.drop_eq_nil_of_le this]
  · simp [pullBody_unfinished s size (by omega),remaining,h]

theorem pullBody_coherent {s : Serializer} (size : ℕ) (hs : s.stage = .body)
    (h : s.headSent = s.headBytes.length) : (s.pullBody size).2.Coherent := by
  by_cases hle : s.pendingBytes.length - s.pendingSent ≤ size
  · rw [pullBody_drained s size hle]
    cases hl : s.isLastProvided with
    | true => exact ⟨fun hh => by simp at hh,fun _ => h,fun _ => ⟨rfl,rfl⟩⟩
    | false => exact ⟨fun hh => by simp [hs] at hh,fun _ => h,fun hh => by simp [hs] at hh⟩
  · rw [pullBody_unfinished s size (by omega)]
    exact ⟨fun hh => by simp [hs] at hh,fun _ => h,fun hh => by simp [hs] at hh⟩

/-- The head part either fills the buffer or leaves the head completely sent. -/
theorem pullHead_cases (s : Serializer) (size : ℕ) (h : s.headSent < s.headBytes.length) :
    ((s.pullHead size).1.length = size ∧ size ≤ s.headBytes.length - s.headSent) ∨
      ((s.pullHead size).1 = s.headBytes.drop s.headSent ∧
        (s.pullHead size).1.length = s.headBytes.length - s.headSent ∧
        s.headBytes.length - s.headSent < size ∧ (s.pullHead size).2.stage = .body ∧
        (s.pullHead size).2.headSent = s.headBytes.length) := by
  simp only [pullHead]
  by_cases hn : size ≤ s.headBytes.length - s.headSent
  · left
    simp [hn]
  · right
    have hmin : min size (s.headBytes.length - s.headSent) = s.headBytes.length - s.headSent := by
      omega
    have hsum : s.headSent + (s.headBytes.length - s.headSent) = s.headBytes.length := by omega
    refine ⟨?_,?_,by omega,?_,?_⟩ <;> simp [hmin,hsum]

/-- A pull stays within the buffer. -/
theorem length_pull (s : Serializer) (size : ℕ) : (s.pull size).1.length ≤ size := by
  have hhead : (s.pullHead size).1.length ≤ size := by simp [pullHead]
  have hbody : ∀ (t : Serializer) (n : ℕ), (t.pullBody n).1.length ≤ n := by
    intro t n
    simp [pullBody]
  have hboth := hbody (s.pullHead size).2 (size - (s.pullHead size).1.length)
  by_cases hs : s.stage = .head
  · simp only [pull,hs,if_true,true_and]
    split
    · exact hhead
    · split
      · rw [List.length_append]
        omega
      · exact hhead
  · simp only [pull,hs,if_false,false_and]
    split
    · exact hbody s size
    · exact Nat.zero_le size

/-- What one pull does: it hands out the first `size` remaining bytes and keeps the rest. -/
structure PullSpec (s : Serializer) (size : ℕ) (r : Bytes × Serializer) : Prop where
  out : r.1 = s.remaining.take size
  remaining : r.2.remaining = s.remaining.drop size
  coherent : r.2.Coherent
  chunked : r.2.chunked = s.chunked
  isLastProvided : r.2.isLastProvided = s.isLastProvided

theorem pullBody_spec {s : Serializer} (size : ℕ) (hs : s.stage = .body)
    (h : s.headSent = s.headBytes.length) : PullSpec s size (s.pullBody size) where
  out := by simp [pullBody_out,Serializer.remaining,h]
  remaining := by
    rw [pullBody_remaining s size h]
    simp [Serializer.remaining,h]
  coherent := pullBody_coherent size hs h
  chunked := by
    by_cases hle : s.pendingBytes.length - s.pendingSent ≤ size
    · rw [pullBody_drained s size hle]
    · rw [pullBody_unfinished s size (by omega)]
  isLastProvided := by
    by_cases hle : s.pendingBytes.length - s.pendingSent ≤ size
    · rw [pullBody_drained s size hle]
    · rw [pullBody_unfinished s size (by omega)]

theorem pullHead_spec {s : Serializer} {size : ℕ} (hs : s.stage = .head)
    (h : s.headSent < s.headBytes.length) (hle : size ≤ s.headBytes.length - s.headSent) :
    PullSpec s size (s.pullHead size) where
  out := by
    simp only [pullHead,Serializer.remaining,min_eq_left hle]
    rw [List.take_append_of_le_length (by simpa using hle)]
  remaining := by
    simp only [pullHead,Serializer.remaining,min_eq_left hle]
    rw [List.drop_append_of_le_length (by simpa using hle),List.drop_drop]
  coherent := by
    simp only [pullHead,min_eq_left hle]
    split_ifs with hall
    · exact ⟨fun hh => by simp at hh,fun _ => hall,fun hh => by simp at hh⟩
    · refine ⟨fun _ => ?_,fun hh => absurd hs hh,fun hh => by simp [hs] at hh⟩
      simp only at hall ⊢
      omega
  chunked := rfl
  isLastProvided := rfl

theorem Coherent.pull {s : Serializer} (h : s.Coherent) (size : ℕ) :
    PullSpec s size (s.pull size) := by
  cases hs : s.stage with
  | head =>
    have hlt := h.head hs
    rcases s.pullHead_cases size hlt with ⟨hlen,hle⟩ | ⟨hout,hlen,hgt,hstage,hsent⟩
    · have hp : s.pull size = s.pullHead size := by simp [Serializer.pull,hs,hlen]
      exact hp ▸ pullHead_spec hs hlt hle
    · have hne : (s.pullHead size).1.length ≠ size := by omega
      have hb := pullBody_spec (s := (s.pullHead size).2)
        (size - (s.pullHead size).1.length) hstage hsent
      have hrem : (s.pullHead size).2.remaining = s.pendingBytes.drop s.pendingSent := by
        simp only [Serializer.remaining,hsent]
        simp [pullHead]
      have hrest : s.remaining = (s.pullHead size).1 ++ (s.pullHead size).2.remaining := by
        rw [hrem,hout,Serializer.remaining]
      have hp : s.pull size = ((s.pullHead size).1 ++ ((s.pullHead size).2.pullBody
          (size - (s.pullHead size).1.length)).1,((s.pullHead size).2.pullBody
          (size - (s.pullHead size).1.length)).2) := by
        simp [Serializer.pull,hs,hne,hstage]
      have hle : (s.pullHead size).1.length ≤ size := by omega
      rw [hp]
      refine ⟨?_,?_,hb.coherent,hb.chunked.trans rfl,hb.isLastProvided.trans rfl⟩
      · rw [hb.out,hrest,List.take_append,List.take_of_length_le hle]
      · rw [hb.remaining,hrest,List.drop_append,List.drop_eq_nil_of_le hle,List.nil_append]
  | body =>
    have hp : s.pull size = s.pullBody size := by simp [Serializer.pull,hs]
    exact hp ▸ pullBody_spec size hs (h.sent (by simp [hs]))
  | done =>
    have hp : s.pull size = ([],s) := by simp [Serializer.pull,hs]
    have hr := h.remaining_of_done (by simp [Serializer.done,hs])
    exact hp ▸ ⟨by simp [hr],by simp [hr],h,rfl,rfl⟩

/-- With room in the buffer, a pull that finds nothing left after the last piece finishes. -/
theorem Coherent.done_of_nothing_left {s : Serializer} (h : s.Coherent) {size : ℕ}
    (hsize : 0 < size) (hr : s.remaining = []) (hl : s.isLastProvided = true) :
    (s.pull size).2.done = true := by
  cases hs : s.stage with
  | head =>
    have := h.head hs
    simp only [Serializer.remaining,List.append_eq_nil_iff,List.drop_eq_nil_iff] at hr
    omega
  | body =>
    have hp : s.pull size = s.pullBody size := by simp [Serializer.pull,hs]
    simp only [Serializer.remaining,List.append_eq_nil_iff,List.drop_eq_nil_iff] at hr
    simp [hp,pullBody_drained s size (by omega),hl,Serializer.done]
  | done => simp [Serializer.pull,hs,Serializer.done]

theorem remaining_of_pullBody_eq_nil {s : Serializer} {size : ℕ} (hsize : 0 < size)
    (hstage : s.stage = .body) (hnil : (s.pullBody size).1 = [])
    (hz : (s.pullBody size).2.Coherent) : (s.pullBody size).2.remaining = [] := by
  have hle : s.pendingBytes.length - s.pendingSent ≤ size := by
    rw [pullBody_out,List.take_eq_nil_iff,List.drop_eq_nil_iff] at hnil
    omega
  rw [pullBody_drained s size hle] at hz ⊢
  have hsent := hz.sent (by dsimp only; split <;> simp [hstage])
  simpa [remaining] using hsent.ge

/-- After a pull that had room and found nothing, nothing is left. -/
theorem remaining_of_pull_eq_nil {s : Serializer} {size : ℕ} (hsize : 0 < size)
    (hnil : (s.pull size).1 = []) (hz : (s.pull size).2.Coherent) :
    (s.pull size).2.remaining = [] := by
  cases hstage : s.stage with
  | head =>
    have hsent : s.headSent = s.headBytes.length := by
      by_contra hne
      have hlt : s.headSent < s.headBytes.length := Nat.lt_of_le_of_ne s.headSent_le hne
      have hcoherent : s.Coherent :=
        ⟨fun _ => hlt,fun h => absurd hstage h,fun h => by simp [hstage] at h⟩
      rw [(hcoherent.pull size).out,List.take_eq_nil_iff,remaining,List.append_eq_nil_iff,
        List.drop_eq_nil_iff] at hnil
      omega
    have hpull : s.pull size = (s.pullHead size).2.pullBody size := by
      simp [pull,hstage,pullHead,hsent,hsize.ne]
    rw [hpull] at hnil hz ⊢
    exact remaining_of_pullBody_eq_nil hsize (by simp [pullHead,hsent]) hnil hz
  | body =>
    have hpull : s.pull size = s.pullBody size := by simp [pull,hstage]
    rw [hpull] at hnil hz ⊢
    exact remaining_of_pullBody_eq_nil hsize hstage hnil hz
  | done =>
    have hpull : s.pull size = ([],s) := by simp [pull,hstage]
    rw [hpull] at hz ⊢
    exact hz.remaining_of_done (by simp [Serializer.done,hstage])

end Serializer
end PerCoreShard
