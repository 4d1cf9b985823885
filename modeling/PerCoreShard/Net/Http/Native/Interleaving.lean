import PerCoreShard.Net.Http.Native.Pieces

/-! A serializer under any interleaving of its calls. The bytes it hands out are those it was
given, in the same order, whatever the sizes of the buffers are. -/
namespace PerCoreShard
namespace Serializer

/-- The calls that may follow `start`. -/
inductive Call
  | provideBody (chunk : Bytes) (isLast : Bool)
  | pull (size : ℕ)
  deriving DecidableEq, Repr

/-- The bytes a call returns, and the serializer behind it. -/
def call (s : Serializer) : Call → Bytes × Serializer
  | .provideBody chunk isLast => ([],s.provideBody chunk isLast)
  | .pull size => s.pull size

def after (s : Serializer) (calls : List Call) : Serializer :=
  calls.foldl (fun s c => (s.call c).2) s

/-- All the bytes the calls return. -/
def pulled : Serializer → List Call → Bytes
  | _,[] => []
  | s,c::calls => (s.call c).1 ++ pulled (s.call c).2 calls

def Call.piece : Call → Option (Bytes × Bool)
  | .provideBody chunk isLast => some (chunk,isLast)
  | .pull _ => none

/-- The pieces the calls provide, in order. -/
def provided (calls : List Call) : List (Bytes × Bool) := calls.filterMap Call.piece

theorem after_append (s : Serializer) (calls more : List Call) :
    s.after (calls ++ more) = (s.after calls).after more := List.foldl_append

theorem pulled_append (s : Serializer) (calls more : List Call) :
    s.pulled (calls ++ more) = s.pulled calls ++ (s.after calls).pulled more := by
  induction calls generalizing s with
  | nil => rfl
  | cons c calls ih => simp only [List.cons_append,pulled,ih,List.append_assoc,after,List.foldl_cons]

theorem provided_append (calls more : List Call) :
    provided (calls ++ more) = provided calls ++ provided more := List.filterMap_append

/-- What ties a serializer to the calls it has had. -/
structure Relays (s : Serializer) (head : Bytes) (chunked : Bool) (calls : List Call) : Prop where
  coherent : (s.after calls).Coherent
  framing : (s.after calls).chunked = chunked
  bytes : s.pulled calls ++ (s.after calls).remaining = head ++ encodeAll chunked (provided calls)
  last : (s.after calls).isLastProvided = final (provided calls)

theorem Relays.provideBody {s : Serializer} {head : Bytes} {chunked : Bool} {calls : List Call}
    (h : Relays s head chunked calls) (hopen : final (provided calls) = false) (chunk : Bytes)
    (isLast : Bool) : Relays s head chunked (calls ++ [.provideBody chunk isLast]) := by
  have hprovided : provided (calls ++ [.provideBody chunk isLast]) =
      provided calls ++ [(chunk,isLast)] := provided_append calls _
  have hdone : (s.after calls).done = false := by
    rw [Bool.eq_false_iff]
    intro hd
    have hlast := h.coherent.isLastProvided_of_done hd
    rw [h.last,hopen] at hlast
    cases hlast
  constructor
  · rw [after_append]
    exact h.coherent.provideBody hdone chunk isLast
  · rw [after_append]
    exact h.framing
  · rw [after_append,pulled_append,hprovided,encodeAll_append,← List.append_assoc head,← h.bytes]
    change s.pulled calls ++ ([] ++ []) ++ ((s.after calls).provideBody chunk isLast).remaining = _
    rw [remaining_provideBody,h.framing,List.append_nil,List.append_nil,List.append_assoc]
  · rw [after_append,hprovided,final_append,← h.last]
    exact Bool.or_comm _ _

theorem Relays.pull {s : Serializer} {head : Bytes} {chunked : Bool} {calls : List Call}
    (h : Relays s head chunked calls) (size : ℕ) :
    Relays s head chunked (calls ++ [.pull size]) := by
  have hprovided : provided (calls ++ [.pull size]) = provided calls := by
    rw [provided_append]
    exact List.append_nil _
  have hpull := h.coherent.pull size
  constructor
  · rw [after_append]
    exact hpull.coherent
  · rw [after_append]
    exact hpull.chunked.trans h.framing
  · rw [after_append,pulled_append,hprovided,← h.bytes]
    change s.pulled calls ++ (((s.after calls).pull size).1 ++ []) ++
      ((s.after calls).pull size).2.remaining = _
    rw [hpull.out,hpull.remaining,List.append_nil,List.append_assoc,List.take_append_drop]
  · rw [after_append,hprovided,← h.last]
    exact hpull.isLastProvided

/-- The calls provide the pieces of a body in order, and none behind the last. -/
theorem relays_start {head : Bytes} (hhead : head ≠ []) (headers : List Header)
    {chunks : List Bytes} (calls : List Call) (h : provided calls <+: flagged chunks) :
    Relays (start head headers) head (hasChunkedEncoding headers) calls := by
  induction calls using List.reverseRecOn with
  | nil =>
    refine ⟨coherent_start headers hhead,rfl,?_,rfl⟩
    simp [pulled,after,provided,encodeAll]
  | append_singleton calls c ih =>
    rw [provided_append] at h
    have hbefore := (List.prefix_append _ _).trans h
    have hrest := ih hbefore
    cases c with
    | pull size => exact hrest.pull size
    | provideBody chunk isLast =>
      refine hrest.provideBody ?_ chunk isLast
      rw [Bool.eq_false_iff]
      intro hlast
      have hlen := h.length_le
      rw [eq_flagged_of_final hbefore hlast,List.length_append] at hlen
      simp [provided,Call.piece] at hlen

/-- What holds after some of the calls that write a message with this head and this body. -/
structure Streams (s : Serializer) (head : Bytes) (chunked : Bool) (chunks : List Bytes)
    (calls : List Call) : Prop where
  ordered : s.pulled calls <+: head ++ encodeAll chunked (provided calls)
  bounded : ∀ size, ((s.after calls).pull size).1.length ≤ size
  drained : ∀ size, 0 < size → ((s.after calls).pull size).1 = [] →
    s.pulled calls = head ++ encodeAll chunked (provided calls)
  complete : (s.after calls).done = true → chunks ≠ [] ∧ provided calls = flagged chunks ∧
    s.pulled calls = head ++ encodeAll chunked (flagged chunks)

theorem Relays.streams {s : Serializer} {head : Bytes} {chunked : Bool} {chunks : List Bytes}
    {calls : List Call} (h : Relays s head chunked calls) (hp : provided calls <+: flagged chunks) :
    Streams s head chunked chunks calls where
  ordered := ⟨_,h.bytes⟩
  bounded := length_pull _
  drained size hsize hnone := by
    have hout := (h.coherent.pull size).out
    rw [hnone,eq_comm,List.take_eq_nil_iff] at hout
    have hempty := hout.resolve_left (Nat.ne_of_gt hsize)
    rw [← h.bytes,hempty,List.append_nil]
  complete hd := by
    have hlast := h.coherent.isLastProvided_of_done hd
    rw [h.last] at hlast
    have hall := eq_flagged_of_final hp hlast
    refine ⟨?_,hall,?_⟩
    · rintro rfl
      rw [hall] at hlast
      cases hlast
    · rw [← hall,← h.bytes,h.coherent.remaining_of_done hd,List.append_nil]

/-- Neither serializer depends on the sizes of the buffers or on when the pieces arrive. -/
theorem streams_interleaved (chunks : List Bytes) (calls : List Call)
    (h : provided calls <+: flagged chunks) :
    (∀ head : RequestHead, Streams (startRequest head) head.bytes
      (hasChunkedEncoding head.headers) chunks calls) ∧
    ∀ head : ResponseHead, Streams (startResponse head) head.bytes
      (hasChunkedEncoding head.headers) chunks calls :=
  ⟨fun head => (relays_start (request_bytes_ne_nil head) _ calls h).streams h,
    fun head => (relays_start (response_bytes_ne_nil head) _ calls h).streams h⟩

/-- Two pieces that arrive between pulls of three sizes. -/
theorem streams_interleaved_pieces :
    let calls := [Call.pull 5,.provideBody (ascii "ab") false,.pull 0,.pull 40,
      .provideBody (ascii "c") true,.pull 100]
    ∀ head : RequestHead, Streams (startRequest head) head.bytes
      (hasChunkedEncoding head.headers) [ascii "ab",ascii "c"] calls :=
  (streams_interleaved [ascii "ab",ascii "c"] _ (by decide)).1

end Serializer
end PerCoreShard
