import PerCoreShard.Net.Http.Llhttp.Segmentation
import PerCoreShard.Net.Http.Native.Pieces
import PerCoreShard.Filter.BodyFilterGate

/-! The books of one message on its way from a parser through the filters and a serializer to
the peer, and their agreement with the members of the session that move it. Requests and
responses are moved in the same way. -/
namespace PerCoreShard
open LlhttpParser

/-- A message head that can be written. -/
class WireHead (H : Type) extends ParsedHead H where
  bytes : H → Bytes
  headers : H → List Header

instance : WireHead RequestHead where
  bytes := RequestHead.bytes
  headers := RequestHead.headers

instance : WireHead ResponseHead where
  bytes := ResponseHead.bytes
  headers := ResponseHead.headers

/-- One call of the body filter gate: its arguments, its result and the iteration state it
leaves behind. -/
structure GateCall where
  chunk : Bytes
  endStream : Bool
  result : GateResult
  state : DataIterationState
  deriving DecidableEq, Repr

/-- The pieces of body the gate let through, with their `end_stream` flags. -/
def forwards (gates : List GateCall) : List (Bytes × Bool) :=
  gates.filterMap fun g =>
    match g.result with
    | .forward data => some (data,g.endStream)
    | _ => none

/-- The body bytes that entered the gate. -/
def gated (gates : List GateCall) : Bytes := gates.flatMap fun g => g.chunk

/-- The iteration state after the calls made so far. -/
def gateState (gates : List GateCall) : DataIterationState :=
  (gates.getLast?.map fun g => g.state).getD {}

@[simp] theorem gated_append (gates : List GateCall) (call : GateCall) :
    gated (gates ++ [call]) = gated gates ++ call.chunk := by
  simp [gated]

@[simp] theorem gateState_append (gates : List GateCall) (call : GateCall) :
    gateState (gates ++ [call]) = call.state := by
  simp [gateState]

theorem forwards_append_forward (gates : List GateCall) (call : GateCall) {data : Bytes}
    (h : call.result = .forward data) :
    forwards (gates ++ [call]) = forwards gates ++ [(data,call.endStream)] := by
  simp [forwards,h]

theorem forwards_append_stillBuffering {call : GateCall} (gates : List GateCall)
    (h : call.result = .stillBuffering) : forwards (gates ++ [call]) = forwards gates := by
  simp [forwards,h]

/-- What has happened to one message. -/
structure Ledger (H : Type) where
  /-- What was read from the sender, read by read. -/
  reads : List Bytes := []
  /-- The head shown to the filters, their answer, and the head they left behind. -/
  filtered : Option (H × FilterHeaderResult × H) := none
  /-- The head the serializer was started with. -/
  head : Option H := none
  gates : List GateCall := []
  provided : List (Bytes × Bool) := []
  /-- The bytes accepted on the connection to the receiver now in use. -/
  sent : Bytes := []

namespace Ledger
variable {H : Type} [WireHead H]

def input (l : Ledger H) : Bytes := l.reads.flatten

/-- The parse of all that was read. -/
def parse (l : Ledger H) (ll : Llhttp) : LlhttpParser ll H := parsed ll H l.input

def chunked (head : H) : Bool := hasChunkedEncoding (WireHead.headers head)

/-- All of the body that was parsed has entered the gate. -/
def Drained (l : Ledger H) (ll : Llhttp) : Prop :=
  l.head.isSome = true → gated l.gates = (l.parse ll).scratch

/-- Everything the serializer was given, as it goes over the wire. -/
def wire (l : Ledger H) : Bytes :=
  match l.head with
  | some head => WireHead.bytes head ++ encodeAll (chunked head) l.provided
  | none => []

/-- These are the next bytes to be sent. -/
def Next (l : Ledger H) (data : Bytes) : Prop := ∃ rest, l.wire = l.sent ++ data ++ rest

/-- One gate call: a nonempty piece of the body parsed so far, in order, flagged as the end
when nothing of the body is left and the message is complete. -/
structure GateStep {Ctx : Type} (l : Ledger H) (ll : Llhttp) (filters : FilterChain Ctx)
    (watermark : ℕ) (isRequest : Bool) (call : GateCall) : Prop where
  started : l.head.isSome = true
  notFinal : final l.provided = false
  nonempty : call.chunk ≠ []
  next : ∃ rest, gated l.gates ++ call.chunk ++ rest = (l.parse ll).scratch ∧
    call.endStream = (rest.isEmpty && (l.parse ll).messageDone)
  apply : ∃ ctx ctx', BodyFilterGate.apply filters watermark isRequest call.chunk call.endStream
    (gateState l.gates) ctx = (call.result,call.state,ctx')

/-- One piece for the serializer: what the gate has just forwarded, or nothing but the end of
a complete message. -/
structure ProvideStep (l : Ledger H) (ll : Llhttp) (chunk : Bytes) (isLast : Bool) : Prop where
  started : l.head.isSome = true
  notFinal : final l.provided = false
  piece : l.provided ++ [(chunk,isLast)] = forwards l.gates ∨
    (l.provided = forwards l.gates ∧ chunk = [] ∧ isLast = true ∧
      (l.parse ll).messageDone = true ∧ gated l.gates = (l.parse ll).scratch)

end Ledger

/-- The members of the session that move a message. -/
structure Direction (ll : Llhttp) (H : Type) where
  parser : LlhttpParser ll H
  serializer : Serializer
  gate : DataIterationState
  filtered : Bool
  started : Bool
  finalProvided : Bool

/-- The members agree with the books, with `held` taken out of the parser but not yet shown to
the gate, and `inflight` taken out of the serializer but not yet accepted. -/
structure Agrees {ll : Llhttp} {H : Type} [WireHead H] (d : Direction ll H) (l : Ledger H)
    (held inflight : Bytes) : Prop where
  parser : d.parser = { l.parse ll with scratch := d.parser.scratch }
  body : gated l.gates ++ held ++ d.parser.scratch = (l.parse ll).scratch
  gate : d.gate = gateState l.gates
  filtered : d.filtered = l.filtered.isSome
  started : d.started = l.head.isSome
  passed : l.filtered.isSome = l.head.isSome
  unstarted : l.head = none → l.gates = [] ∧ l.provided = [] ∧ l.sent = []
  coherent : l.head.isSome = true → d.serializer.Coherent
  chunked : ∀ head, l.head = some head → d.serializer.chunked = Ledger.chunked head
  wire : l.wire = l.sent ++ inflight ++ d.serializer.remaining
  finalProvided : d.finalProvided = final l.provided
  lastProvided : d.serializer.isLastProvided = final l.provided
  provided : final l.provided = false → l.provided = forwards l.gates
  complete : final l.provided = true →
    (l.parse ll).messageDone = true ∧ gated l.gates = (l.parse ll).scratch

namespace Agrees
variable {ll : Llhttp} {H : Type} [WireHead H] {d : Direction ll H} {l : Ledger H}
  {held inflight : Bytes}

theorem messageDone (h : Agrees d l held inflight) :
    d.parser.messageDone = (l.parse ll).messageDone := by
  rw [h.parser]

theorem headerDone (h : Agrees d l held inflight) :
    d.parser.headerDone = (l.parse ll).headerDone := by
  rw [h.parser]

theorem head (h : Agrees d l held inflight) : d.parser.head = (l.parse ll).head := by
  rw [h.parser]

theorem hasError (h : Agrees d l held inflight) :
    d.parser.hasError = (l.parse ll).hasError := by
  rw [h.parser]

theorem automaton (h : Agrees d l held inflight) :
    d.parser.parser = (l.parse ll).parser := by
  rw [h.parser]

theorem notFinal (h : Agrees d l held inflight) (hm : (l.parse ll).messageDone = false) :
    final l.provided = false := by
  cases hf : final l.provided with
  | false => rfl
  | true =>
    rw [(h.complete hf).1] at hm
    cases hm

/-- The serializer never finishes before the last piece. -/
theorem not_done (h : Agrees d l held inflight) (hs : l.head.isSome = true)
    (hf : final l.provided = false) : d.serializer.done = false := by
  cases hd : d.serializer.done with
  | false => rfl
  | true =>
    have := (h.coherent hs).isLastProvided_of_done hd
    rw [h.lastProvided,hf] at this
    cases this

theorem final_of_done (h : Agrees d l held inflight) (hs : l.head.isSome = true)
    (hd : d.serializer.done = true) : final l.provided = true := by
  rw [← h.lastProvided]
  exact (h.coherent hs).isLastProvided_of_done hd

/-- A serializer that is done has handed out everything. -/
theorem wire_of_done (h : Agrees d l held inflight) (hs : l.head.isSome = true)
    (hd : d.serializer.done = true) : l.wire = l.sent ++ inflight := by
  rw [h.wire,(h.coherent hs).remaining_of_done hd,List.append_nil]

theorem drained (h : Agrees d l [] inflight) (hs : d.parser.scratch = []) :
    gated l.gates = (l.parse ll).scratch := by
  have hb := h.body
  simpa [hs] using hb

theorem next (h : Agrees d l held inflight) : l.Next inflight := ⟨_,h.wire⟩

/-- The members of a session that has not seen a byte of the message. -/
theorem fresh (hp : d.parser = .create ll H) (hz : d.serializer = {}) (hg : d.gate = {})
    (hf : d.filtered = false) (hs : d.started = false) (hl : d.finalProvided = false) :
    Agrees d ({} : Ledger H) [] [] where
  parser := by simp [hp,Ledger.parse,Ledger.input,parsed_nil]
  body := by simp [hp,Ledger.parse,Ledger.input,parsed_nil,gated,create]
  gate := hg
  filtered := hf
  started := hs
  passed := rfl
  unstarted _ := ⟨rfl,rfl,rfl⟩
  coherent h := by simp at h
  chunked _ h := by simp at h
  wire := by simp [hz,Ledger.wire,Serializer.remaining]
  finalProvided := hl
  lastProvided := by simp [hz,final]
  provided _ := rfl
  complete h := by simp [final] at h

/-- Reading more of an incomplete message. -/
theorem feed (h : Agrees d l held inflight) (raw : Bytes)
    (hm : (l.parse ll).messageDone = false) :
    Agrees { d with parser := (d.parser.feed raw).2 } { l with reads := l.reads ++ [raw] }
      held inflight := by
  have hin : Ledger.input { l with reads := l.reads ++ [raw] } = l.input ++ raw := by
    simp [Ledger.input]
  obtain ⟨more,hmore,hfeed⟩ := feed_parsed l.input d.parser.scratch raw hm
  have hp : (d.parser.feed raw).2 =
      { parsed ll H (l.input ++ raw) with scratch := d.parser.scratch ++ more } := by
    rw [← hfeed]
    exact congrArg (fun p => (LlhttpParser.feed p raw).2) h.parser
  have hf := h.notFinal hm
  refine { h with parser := ?_, body := ?_, complete := fun hc => ?_ }
  · simp only [hp,Ledger.parse,hin]
  · have hb := h.body
    simp only [hp,Ledger.parse,hin] at hb ⊢
    rw [hmore,← hb]
    simp [List.append_assoc]
  · simp [hf] at hc

/-- Taking a piece of body out of the parser. -/
theorem readBody (h : Agrees d l held inflight) (size : ℕ) :
    Agrees { d with parser := (d.parser.readBody size).2 } l
      (held ++ (d.parser.readBody size).1) inflight := by
  refine { h with parser := ?_, body := ?_ }
  · rw [h.parser]
    rfl
  · have hb := h.body
    simp only [LlhttpParser.readBody,List.append_assoc,List.take_append_drop] at hb ⊢
    exact hb

/-- The call of the gate with the first bytes of what is held. -/
theorem gateStep {Ctx : Type} (filters : FilterChain Ctx) (watermark : ℕ) (isRequest : Bool)
    {chunk : Bytes} {endStream : Bool} (h : Agrees d l (chunk ++ held) inflight)
    (hs : l.head.isSome = true) (hf : final l.provided = false) (hne : chunk ≠ [])
    (he : endStream = ((held ++ d.parser.scratch).isEmpty && d.parser.messageDone)) (ctx : Ctx) :
    l.GateStep ll filters watermark isRequest ⟨chunk,endStream,
      (BodyFilterGate.apply filters watermark isRequest chunk endStream d.gate ctx).1,
      (BodyFilterGate.apply filters watermark isRequest chunk endStream d.gate ctx).2.1⟩ where
  started := hs
  notFinal := hf
  nonempty := hne
  next := by
    refine ⟨held ++ d.parser.scratch,?_,?_⟩
    · have hb := h.body
      simp only [List.append_assoc] at hb ⊢
      exact hb
    · rw [← h.messageDone]
      exact he
  apply := by
    rw [← h.gate]
    exact ⟨ctx,_,rfl⟩

/-- The end of the stream is flagged only when everything was taken out and shown. -/
theorem endStream {chunk : Bytes} (h : Agrees d l (chunk ++ held) inflight)
    (he : true = ((held ++ d.parser.scratch).isEmpty && d.parser.messageDone)) :
    (l.parse ll).messageDone = true ∧ held = [] ∧ d.parser.scratch = [] := by
  simp only [Eq.comm (a := true),Bool.and_eq_true,List.isEmpty_iff,List.append_eq_nil_iff] at he
  exact ⟨h.messageDone.symm.trans he.2,he.1⟩

/-- A call of the gate that keeps the piece. -/
theorem buffer (call : GateCall) (h : Agrees d l (call.chunk ++ held) inflight)
    (hs : l.head.isSome = true) (hf : final l.provided = false)
    (hr : call.result = .stillBuffering) :
    Agrees { d with gate := call.state } { l with gates := l.gates ++ [call] } held inflight := by
  refine { h with
    body := ?_, gate := ?_, unstarted := fun hn => ?_, provided := fun _ => ?_,
    complete := fun hc => ?_ }
  · have hb := h.body
    simp only [gated_append,← List.append_assoc] at hb ⊢
    exact hb
  · simp
  · exact absurd hs (by simp [show l.head = none from hn])
  · simp only [forwards_append_stillBuffering _ hr]
    exact h.provided hf
  · simp only [hf,Bool.false_eq_true] at hc

/-- A call of the gate that forwards, and the piece it hands to the serializer. -/
theorem forward (call : GateCall) {data : Bytes} (h : Agrees d l (call.chunk ++ held) inflight)
    (hs : l.head.isSome = true) (hf : final l.provided = false)
    (hr : call.result = .forward data)
    (he : call.endStream = true → (l.parse ll).messageDone = true ∧ held = [] ∧
      d.parser.scratch = []) :
    Agrees
      { d with
        gate := call.state
        finalProvided := call.endStream || d.finalProvided
        serializer := d.serializer.provideBody data call.endStream }
      { l with
        gates := l.gates ++ [call]
        provided := l.provided ++ [(data,call.endStream)] } held inflight := by
  obtain ⟨head,hhead⟩ := Option.isSome_iff_exists.mp hs
  refine { h with
    body := ?_, gate := ?_, unstarted := fun hn => ?_, coherent := fun _ => ?_, wire := ?_,
    finalProvided := ?_, lastProvided := ?_, provided := fun _ => ?_, complete := fun hc => ?_ }
  · have hb := h.body
    simp only [gated_append,← List.append_assoc] at hb ⊢
    exact hb
  · simp
  · simp [hhead] at hn
  · exact (h.coherent hs).provideBody (h.not_done hs hf) _ _
  · have hw := h.wire
    simp only [Ledger.wire,hhead,Serializer.remaining_provideBody,encodeAll_append,
      h.chunked head hhead] at hw ⊢
    rw [← List.append_assoc,hw]
    simp [List.append_assoc]
  · simp [h.finalProvided,Bool.or_comm]
  · simp [h.lastProvided,Bool.or_comm]
  · simp only [forwards_append_forward _ _ hr,h.provided hf]
  · simp only [final_append,hf,Bool.false_or] at hc
    obtain ⟨hm,rfl,hscratch⟩ := he hc
    refine ⟨hm,?_⟩
    have hb : gated l.gates ++ (call.chunk ++ []) ++ d.parser.scratch = (l.parse ll).scratch := h.body
    change gated (l.gates ++ [call]) = (l.parse ll).scratch
    simpa [hscratch] using hb

/-- The end of a complete message whose body has been drained. -/
theorem provideFinal (h : Agrees d l [] inflight) (hs : l.head.isSome = true)
    (hf : final l.provided = false) (hm : (l.parse ll).messageDone = true)
    (hdr : l.Drained ll) :
    Agrees
      { d with
        finalProvided := true
        serializer := d.serializer.provideBody [] true }
      { l with provided := l.provided ++ [([],true)] } [] inflight := by
  obtain ⟨head,hhead⟩ := Option.isSome_iff_exists.mp hs
  refine { h with
    unstarted := fun hn => ?_, coherent := fun _ => ?_, wire := ?_, finalProvided := ?_,
    lastProvided := ?_, provided := fun hc => ?_, complete := fun _ => ⟨hm,hdr hs⟩ }
  · simp [hhead] at hn
  · exact (h.coherent hs).provideBody (h.not_done hs hf) _ _
  · have hw := h.wire
    simp only [Ledger.wire,hhead,Serializer.remaining_provideBody,encodeAll_append,
      h.chunked head hhead] at hw ⊢
    rw [← List.append_assoc,hw]
    simp [List.append_assoc]
  · simp
  · simp
  · simp at hc

/-- Starting the serializer with a head the filters passed. -/
theorem start (head : H) (filtered : H × FilterHeaderResult × H) (h : Agrees d l [] [])
    (hn : l.head = none) (hb : WireHead.bytes head ≠ []) :
    Agrees
      { d with
        filtered := true
        started := true
        serializer := .start (WireHead.bytes head) (WireHead.headers head) }
      { l with filtered := some filtered, head := some head } [] [] := by
  obtain ⟨-,hp,hsent⟩ := h.unstarted hn
  have hfinal : final l.provided = false := by simp [hp,final]
  refine { h with
    filtered := rfl, started := rfl, passed := rfl, unstarted := fun hc => ?_,
    coherent := fun _ => Serializer.coherent_start _ hb, chunked := fun head' hh => ?_,
    wire := ?_, lastProvided := ?_ }
  · simp at hc
  · simp only [Option.some.injEq] at hh
    subst hh
    rfl
  · simp [Ledger.wire,hsent,hp,encodeAll]
  · simp [hfinal]

/-- A pull moves bytes from the serializer into the buffer. -/
theorem pull (h : Agrees d l held []) (hs : l.head.isSome = true) (size : ℕ) :
    Agrees { d with serializer := (d.serializer.pull size).2 } l held
      (d.serializer.pull size).1 := by
  have hp := (h.coherent hs).pull size
  refine { h with
    coherent := fun _ => hp.coherent, chunked := fun head hh => ?_, wire := ?_,
    lastProvided := ?_ }
  · rw [← h.chunked head hh]
    exact hp.chunked
  · rw [h.wire,hp.out,hp.remaining]
    simp
  · rw [← h.lastProvided]
    exact hp.isLastProvided

/-- A write that succeeds. -/
theorem written (h : Agrees d l held inflight) (hs : l.head.isSome = true) :
    Agrees d { l with sent := l.sent ++ inflight } held [] := by
  refine { h with unstarted := fun hn => ?_, wire := ?_ }
  · exact absurd hs (by simp [show l.head = none from hn])
  · have hw := h.wire
    simp only [List.append_nil]
    exact hw

/-- On a new connection everything is still to be sent that is not left in the serializer. -/
theorem reconnect (h : Agrees d l held inflight) :
    Agrees d { l with sent := [] } held (l.sent ++ inflight) :=
  { h with
    unstarted := fun hn => ⟨(h.unstarted hn).1,(h.unstarted hn).2.1,rfl⟩
    wire := h.wire }

theorem wire_ne_nil (hs : l.head.isSome = true) (hb : ∀ head : H, WireHead.bytes head ≠ []) :
    l.wire ≠ [] := by
  obtain ⟨head,hhead⟩ := Option.isSome_iff_exists.mp hs
  simp [Ledger.wire,hhead,hb head]

end Agrees
end PerCoreShard
